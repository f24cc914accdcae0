import TypedErrors.Code.Names

/-! # Nodes

A piece of generated code of any sort. Where a sort is asked for, a node of another one is misplaced. -/

namespace TypedErrors
namespace Code

inductive Node where
  | expr (e : Expr)
  | pattern (p : Pattern)
  | stmt (s : Stmt)
  | case (c : Case)
  | param (p : Param)
  | module (m : Module)
deriving Inhabited

/-- A node of the wrong sort, by its type name. -/
inductive Misplaced where
  | node (type : String)
  | pattern (type : String)
deriving DecidableEq

def Misplaced.message : Misplaced → String
  | .node type => "Unknown AST node type: " ++ type
  | .pattern type => "Unknown pattern type: " ++ type

def Expr.typeName : Expr → String
  | .constant _ => "Constant"
  | .name _ => "Name"
  | .attribute .. => "Attribute"
  | .call .. => "Call"
  | .subscript .. => "Subscript"
  | .tuple _ => "Tuple"
  | .list _ => "ListExpr"
  | .raw _ => "RawCode"

def Pattern.typeName : Pattern → String
  | .capture _ => "MatchCapture"
  | .cls .. => "MatchClass"

def Stmt.typeName : Stmt → String
  | .pass => "Pass"
  | .ret _ => "Return"
  | .raise _ => "Raise"
  | .assign .. => "Assign"
  | .annotate .. => "AnnAssign"
  | .delete _ => "Delete"
  | .importModule .. => "Import"
  | .importFrom .. => "ImportFrom"
  | .select .. => "Match"
  | .function .. => "FunctionDef"
  | .cls .. => "ClassDef"

namespace Node

def typeName : Node → String
  | .expr e => e.typeName
  | .pattern p => p.typeName
  | .stmt s => s.typeName
  | .case _ => "MatchCase"
  | .param _ => "Param"
  | .module _ => "Module"

def toExpr : Node → Except Misplaced Expr
  | .expr e => .ok e
  | n => .error (.node n.typeName)

def toPattern : Node → Except Misplaced Pattern
  | .pattern p => .ok p
  | n => .error (.pattern n.typeName)

def toStmt : Node → Except Misplaced Stmt
  | .stmt s => .ok s
  | n => .error (.node n.typeName)

/-- A module, or a module of one statement. -/
def toModule : Node → Except Misplaced Module
  | .module m => .ok m
  | n => do return { body := [← n.toStmt] }

def names : Node → List String
  | .expr e => e.names
  | .pattern p => p.names
  | .stmt s => s.names
  | .case c => Case.namesAll [c]
  | .param p => p.names
  | .module m => m.names

def rename (r : String → String) : Node → Node
  | .expr e => .expr (e.rename r)
  | .pattern p => .pattern (p.rename r)
  | .stmt s => .stmt (s.rename r)
  | .case (.mk p body) => .case (.mk (p.rename r) (Stmt.renameAll r body))
  | .param p => .param (p.rename r)
  | .module m => .module (m.rename r)

end Node
end Code
end TypedErrors
