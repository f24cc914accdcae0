import TypedErrors.Code.Syntax
import TypedErrors.Text.Blank
import TypedErrors.Text.Join
import TypedErrors.Text.Quoted

/-! # The text of generated code

Expressions and patterns are rendered in one line, statements in lines at a level of indentation. Around a
definition there are two blank lines at the outermost level and one elsewhere. -/

namespace TypedErrors
namespace Code

def Constant.render : Constant → String
  | .text t => t.literal
  | .int n => toString n
  | .float x => x.render
  | .bool b => if b then "True" else "False"
  | .none => "None"

mutual

def Expr.render : Expr → String
  | .constant c => c.render
  | .name id => id
  | .attribute value attr => value.render ++ "." ++ attr
  | .call f args keywords =>
    f.render ++ "(" ++ commas (Expr.renderAll args ++ Keyword.renderAll keywords) ++ ")"
  | .subscript value index => value.render ++ "[" ++ commas (Expr.renderAll index) ++ "]"
  | .tuple [x] => "(" ++ x.render ++ ",)"
  | .tuple xs => "(" ++ commas (Expr.renderAll xs) ++ ")"
  | .list xs => "[" ++ commas (Expr.renderAll xs) ++ "]"
  | .raw code => code

def Expr.renderAll : List Expr → List String
  | [] => []
  | x :: xs => x.render :: Expr.renderAll xs

def Keyword.renderAll : List Keyword → List String
  | [] => []
  | .mk k v :: ks => (k ++ "=" ++ v.render) :: Keyword.renderAll ks

end

mutual

def Pattern.render : Pattern → String
  | .capture none => "_"
  | .capture (some n) => n
  | .cls type args keywords =>
    type.render ++ "(" ++ commas (Pattern.renderAll args ++ KeywordPattern.renderAll keywords) ++ ")"

def Pattern.renderAll : List Pattern → List String
  | [] => []
  | p :: ps => p.render :: Pattern.renderAll ps

def KeywordPattern.renderAll : List KeywordPattern → List String
  | [] => []
  | .mk k p :: ks => (k ++ "=" ++ p.render) :: KeywordPattern.renderAll ks

end

def Param.render (p : Param) : String :=
  match p.type with
  | none => p.name
  | some a => p.name ++ ": " ++ a.render

/-- The indentation of a level. -/
def pad (level : Nat) : String := String.ofList (List.replicate (4 * level) ' ')

namespace Doc

/-- Doubles backslashes. -/
def escapeBackslashes : List Char → List Char
  | [] => []
  | c :: cs => if c = '\\' then '\\' :: '\\' :: escapeBackslashes cs else c :: escapeBackslashes cs

/-- Escapes the quotes of each run of three. -/
def escapeTriples : List Char → List Char
  | '"' :: '"' :: '"' :: cs => '\\' :: '"' :: '\\' :: '"' :: '\\' :: '"' :: escapeTriples cs
  | c :: cs => c :: escapeTriples cs
  | [] => []

/-- Escapes a quote at the end. -/
def escapeLast : List Char → List Char
  | [] => []
  | ['"'] => ['\\', '"']
  | c :: cs => c :: escapeLast cs

def escape (cs : List Char) : List Char := escapeLast (escapeTriples (escapeBackslashes cs))

/-- The lines between line feeds; `acc` is the start of the current one, reversed. -/
def splitLines (acc : List Char) : List Char → List (List Char)
  | [] => [acc.reverse]
  | '\n' :: cs => acc.reverse :: splitLines [] cs
  | c :: cs => splitLines (c :: acc) cs

/-- The lines of a documentation literal. Further lines are indented unless they are empty. -/
def render (level : Nat) (text : String) : List String :=
  match splitLines [] (escape text.toList) with
  | [] => []
  | [line] => [pad level ++ "\"\"\"" ++ String.ofList line ++ "\"\"\""]
  | line :: more =>
    (pad level ++ "\"\"\"" ++ String.ofList line) ::
      more.map (fun l => if l.isEmpty then "" else pad level ++ String.ofList l) ++
      [pad level ++ "\"\"\""]

end Doc

/-- Documentation that is there and not empty. -/
def shownDoc (doc : Option String) : Option String := doc.filter (!·.isEmpty)

/-- The blank lines between two statements. -/
def gap (level : Nat) (a b : Stmt) : List String :=
  if a.isDefinition || b.isDefinition then List.replicate (if level = 0 then 2 else 1) "" else []

def renderImportName : String × Option String → String
  | (n, none) => n
  | (n, some a) => n ++ " as " ++ a

mutual

def Stmt.render (level : Nat) : Stmt → List String
  | .pass => [pad level ++ "pass"]
  | .ret none => [pad level ++ "return"]
  | .ret (some x) => [pad level ++ "return " ++ x.render]
  | .raise x => [pad level ++ "raise " ++ x.render]
  | .assign target value => [pad level ++ target.render ++ " = " ++ value.render]
  | .annotate target type none => [pad level ++ target ++ ": " ++ type.render]
  | .annotate target type (some x) =>
    [pad level ++ target ++ ": " ++ type.render ++ " = " ++ x.render]
  | .delete targets => [pad level ++ "del " ++ commas (Expr.renderAll targets)]
  | .importModule m none => [pad level ++ "import " ++ m]
  | .importModule m (some a) => [pad level ++ "import " ++ m ++ " as " ++ a]
  | .importFrom m names => [pad level ++ "from " ++ m ++ " import " ++ commas (names.map renderImportName)]
  | .select subject cases =>
    (pad level ++ "match " ++ subject.render ++ ":") :: Case.renderAll (level + 1) cases
  | .function name params body returns decorators doc =>
    let result := match returns with
      | some r => " -> " ++ r.render
      | none => ""
    (Expr.renderAll decorators).map (fun d => pad level ++ "@" ++ d) ++
      (pad level ++ "def " ++ name ++ "(" ++ commas (params.map Param.render) ++ ")" ++ result ++ ":") ::
      match shownDoc doc with
      | none => Stmt.renderBlock (level + 1) body
      | some d => Doc.render (level + 1) d ++ Stmt.renderMore (level + 1) none body
  | .cls name bases body decorators doc =>
    let parents := commas (Expr.renderAll bases)
    (Expr.renderAll decorators).map (fun d => pad level ++ "@" ++ d) ++
      (pad level ++ "class " ++ name ++ (if parents.isEmpty then "" else "(" ++ parents ++ ")") ++ ":") ::
      match shownDoc doc with
      | none => Stmt.renderBlock (level + 1) body
      | some d =>
        Doc.render (level + 1) d ++ (if body.isEmpty then [] else [""]) ++
          Stmt.renderMore (level + 1) none body

/-- A suite; an empty one passes. -/
def Stmt.renderBlock (level : Nat) : List Stmt → List String
  | [] => [pad level ++ "pass"]
  | s :: ss => s.render level ++ Stmt.renderMore level (some s) ss

/-- The statements after `previous`. -/
def Stmt.renderMore (level : Nat) (previous : Option Stmt) : List Stmt → List String
  | [] => []
  | s :: ss =>
    (match previous with
      | some p => gap level p s
      | none => []) ++ s.render level ++ Stmt.renderMore level (some s) ss

def Case.renderAll (level : Nat) : List Case → List String
  | [] => []
  | .mk pattern body :: cs =>
    (pad level ++ "case " ++ pattern.render ++ ":") :: Stmt.renderBlock (level + 1) body ++
      Case.renderAll level cs

end

/-- Drops blanks at the end. -/
def dropTrailingBlanks (s : String) : String :=
  String.ofList (s.toList.reverse.dropWhile isBlank).reverse

/-- The text of a module, ended by one line feed. -/
def Module.render (m : Module) : String :=
  let doc := match shownDoc m.doc with
    | some d => Doc.render 0 d ++ [""]
    | none => []
  dropTrailingBlanks (joinWith "\n" (doc ++ Stmt.renderBlock 0 m.body)) ++ "\n"

end Code
end TypedErrors
