import TypedErrors.Proofs.Source.Lexeme
import TypedErrors.Source.Parser

/-! # Printed files

The lexemes that print what a file declares. Each form that the grammar leaves open is one constructor: the separator
of a path, an optional last comma, the space after the slashes of a doc comment, and the order of attribute blocks
among doc comments and of imports among declarations. -/

namespace TypedErrors

/-! ### Types -/

/-- The parts after the first of a dotted name. -/
inductive PrintsParts : List String → List Lexeme → Prop
  | nil : PrintsParts [] []
  | cons {s : String} {ss : List String} {ls : List Lexeme} {sep : Terminal}
      (hsep : sep = .dot ∨ sep = .pathSep) (hs : Identifier s) (h : PrintsParts ss ls) :
      PrintsParts (s :: ss) (sep.lexeme :: .name s :: ls)

inductive DottedName.Prints : DottedName → List Lexeme → Prop
  | mk {s : String} {ss : List String} {ls : List Lexeme}
      (hs : Identifier s) (h : PrintsParts ss ls) : Prints ⟨s, ss⟩ (.name s :: ls)

mutual

inductive TypeExpr.Prints : TypeExpr → List Lexeme → Prop
  | union {ls ms : List Lexeme} {a : TypeAtom} {more : List TypeAtom}
      (ha : TypeAtom.Prints a ls) (hmore : TypeAtom.PrintsMore more ms) :
      TypeExpr.Prints (.union a more) (ls ++ ms)

inductive TypeAtom.PrintsMore : List TypeAtom → List Lexeme → Prop
  | nil : TypeAtom.PrintsMore [] []
  | cons {ls ms : List Lexeme} {a : TypeAtom} {more : List TypeAtom}
      (ha : TypeAtom.Prints a ls) (h : TypeAtom.PrintsMore more ms) :
      TypeAtom.PrintsMore (a :: more) (Terminal.pipe.lexeme :: (ls ++ ms))

inductive TypeAtom.Prints : TypeAtom → List Lexeme → Prop
  | plain {ls : List Lexeme} {p : DottedName} (hp : p.Prints ls) : TypeAtom.Prints (.plain p) ls
  | subscripted {p : DottedName} {a : TypeArg} {more : List TypeArg} {ls ms ns : List Lexeme} (hp : p.Prints ls)
      (ha : TypeArg.Prints a ms) (hmore : TypeArg.PrintsMore more ns) :
      TypeAtom.Prints (.subscripted p a more)
        (ls ++ Terminal.leftBracket.lexeme :: (ms ++ (ns ++ [Terminal.rightBracket.lexeme])))

/-- The arguments after the first, and a last comma or none. -/
inductive TypeArg.PrintsMore : List TypeArg → List Lexeme → Prop
  | nil : TypeArg.PrintsMore [] []
  | comma : TypeArg.PrintsMore [] [Terminal.comma.lexeme]
  | cons {ls ms : List Lexeme} {a : TypeArg} {more : List TypeArg}
      (ha : TypeArg.Prints a ls) (h : TypeArg.PrintsMore more ms) :
      TypeArg.PrintsMore (a :: more) (Terminal.comma.lexeme :: (ls ++ ms))

inductive TypeArg.Prints : TypeArg → List Lexeme → Prop
  | type {ls : List Lexeme} {e : TypeExpr} (he : TypeExpr.Prints e ls) : TypeArg.Prints (.type e) ls
  | empty : TypeArg.Prints (.list []) [Terminal.leftBracket.lexeme, Terminal.rightBracket.lexeme]
  | list {ls ms : List Lexeme} {a : TypeArg} {more : List TypeArg}
      (ha : TypeArg.Prints a ls) (hmore : TypeArg.PrintsMore more ms) :
      TypeArg.Prints (.list (a :: more))
        (Terminal.leftBracket.lexeme :: (ls ++ (ms ++ [Terminal.rightBracket.lexeme])))
  | literal {s : String} : TypeArg.Prints (.literal s) [⟨.string, s⟩]
  | ellipsis : TypeArg.Prints .ellipsis [Terminal.ellipsis.lexeme]

end

/-! ### Attribute blocks and doc comments -/

/-- Tokens of an attribute block, each bracket closed by its own. -/
inductive Balanced : List Lexeme → Prop
  | nil : Balanced []
  | token {l : Lexeme} {ls : List Lexeme}
      (hl : l.terminal ∈ Site.treeStart) (hplain : Parse.closer? l.terminal = none) (h : Balanced ls) :
      Balanced (l :: ls)
  | group {ls ms : List Lexeme} {t closer : Terminal}
      (hclose : Parse.closer? t = some closer) (hin : Balanced ls) (h : Balanced ms) :
      Balanced (t.lexeme :: (ls ++ closer.lexeme :: ms))

def AttrToken.lexeme (t : AttrToken) : Lexeme := ⟨t.terminal, t.text⟩

inductive RawAttribute.Prints : RawAttribute → List Lexeme → Prop
  | mk {a : RawAttribute} (h : Balanced (a.tokens.map AttrToken.lexeme)) :
      Prints a (Terminal.hash.lexeme :: Terminal.leftBracket.lexeme ::
        (a.tokens.map AttrToken.lexeme ++ [Terminal.rightBracket.lexeme]))

inductive PrintsDoc : String → Lexeme → Prop
  | spaced {s : String} : PrintsDoc s ⟨.doc, "/// " ++ s⟩
  | bare {s : String} (hs : s.toList.head? ≠ some ' ') : PrintsDoc s ⟨.doc, "///" ++ s⟩

/-- What stands in front of a declaration, variant or field. -/
inductive PrintsOuter : List RawAttribute → List String → List Lexeme → Prop
  | nil : PrintsOuter [] [] []
  | block {ls ms : List Lexeme} {a : RawAttribute} {attrs : List RawAttribute} {docs : List String}
      (ha : a.Prints ls) (h : PrintsOuter attrs docs ms) : PrintsOuter (a :: attrs) docs (ls ++ ms)
  | doc {s : String} {l : Lexeme} {ls : List Lexeme} {attrs : List RawAttribute} {docs : List String}
      (hs : PrintsDoc s l) (h : PrintsOuter attrs docs ls) :
      PrintsOuter attrs (s :: docs) (l :: ls)

/-! ### Visibilities -/

inductive PrintsScope : String → Lexeme → Prop
  | name {s : String} (hs : Identifier s) : PrintsScope s (.name s)
  | word {t : Terminal} (ht : t ∈ [.crateWord, .selfWord, .superWord]) : PrintsScope t.lexeme.text t.lexeme

/-- The scopes after the first of a path. -/
inductive PrintsScopes : List String → List Lexeme → Prop
  | nil : PrintsScopes [] []
  | cons {s : String} {ss : List String} {l : Lexeme} {ls : List Lexeme} {sep : Terminal}
      (hsep : sep = .dot ∨ sep = .pathSep) (hs : PrintsScope s l) (h : PrintsScopes ss ls) :
      PrintsScopes (s :: ss) (sep.lexeme :: l :: ls)

/-- What stands between the parentheses of a visibility. -/
inductive PrintsRestriction : Visibility → List Lexeme → Prop
  | crate : PrintsRestriction .crate [Terminal.crateWord.lexeme]
  | scope {t : Terminal}
      (ht : t = .selfWord ∨ t = .superWord) : PrintsRestriction (.restricted [t.lexeme.text] false) [t.lexeme]
  | path {s : String} {ss : List String} {l : Lexeme} {ls : List Lexeme}
      (hs : PrintsScope s l) (h : PrintsScopes ss ls) :
      PrintsRestriction (.restricted (s :: ss) true) (Terminal.inWord.lexeme :: l :: ls)

inductive Visibility.Prints : Visibility → List Lexeme → Prop
  | inherited : Prints .inherited []
  | pub : Prints .pub [Terminal.pubWord.lexeme]
  | restricted {ls : List Lexeme} {v : Visibility} (h : PrintsRestriction v ls) :
      Prints v (Terminal.pubWord.lexeme :: Terminal.leftParen.lexeme :: (ls ++ [Terminal.rightParen.lexeme]))

/-! ### Fields -/

/-- Items parted by commas, the last comma optional. -/
inductive PrintsList {α : Type} (Prints : α → List Lexeme → Prop) : List α → List Lexeme → Prop
  | nil : PrintsList Prints [] []
  | last {ls : List Lexeme} {x : α} (hx : Prints x ls) : PrintsList Prints [x] ls
  | cons {ls ms : List Lexeme} {x : α} {xs : List α} (hx : Prints x ls) (h : PrintsList Prints xs ms) :
      PrintsList Prints (x :: xs) (ls ++ Terminal.comma.lexeme :: ms)

inductive PrintsNamedField : String × Field → List Lexeme → Prop
  | mk {s : String} {f : Field} {ls vs ts : List Lexeme}
      (houter : PrintsOuter f.attrs f.docs ls) (hvis : f.visibility.Prints vs)
      (hs : Identifier s) (hname : f.name = some s) (htype : f.type.Prints ts) :
      PrintsNamedField (s, f) (ls ++ (vs ++ .name s :: Terminal.colon.lexeme :: ts))

inductive PrintsUnnamedField : Field → List Lexeme → Prop
  | mk {f : Field} {ls vs ts : List Lexeme} (houter : PrintsOuter f.attrs f.docs ls) (hvis : f.visibility.Prints vs)
      (hname : f.name = none) (htype : f.type.Prints ts) : PrintsUnnamedField f (ls ++ (vs ++ ts))

/-- Named fields in braces, unnamed ones in parentheses, or nothing. -/
inductive PrintsFields : Fields Field → List Lexeme → Prop
  | unit : PrintsFields .unit []
  | named {ls : List Lexeme} {fs : List (String × Field)} (h : PrintsList PrintsNamedField fs ls) :
      PrintsFields (.named fs) (Terminal.leftBrace.lexeme :: (ls ++ [Terminal.rightBrace.lexeme]))
  | unnamed {ls : List Lexeme} {fs : List Field} (h : PrintsList PrintsUnnamedField fs ls) :
      PrintsFields (.ofList fs) (Terminal.leftParen.lexeme :: (ls ++ [Terminal.rightParen.lexeme]))

/-! ### Declarations -/

inductive Variant.Prints : Variant → List Lexeme → Prop
  | mk {v : Variant} {ls ms : List Lexeme} (houter : PrintsOuter v.attrs v.docs ls) (hs : Identifier v.ident)
      (hfields : PrintsFields v.fields ms) : Prints v (ls ++ .name v.ident :: ms)

/-- The fields of a struct. A semicolon ends it, but after braces. -/
inductive PrintsStruct : Fields Field → List Lexeme → Prop
  | unit : PrintsStruct .unit [Terminal.semicolon.lexeme]
  | named {ls : List Lexeme} {fs : List (String × Field)}
      (h : PrintsFields (.named fs) ls) : PrintsStruct (.named fs) ls
  | unnamed {ls : List Lexeme} {fs : List (Nat × Field)} (h : PrintsFields (.unnamed fs) ls) :
      PrintsStruct (.unnamed fs) (ls ++ [Terminal.semicolon.lexeme])

/-- From the keyword on. -/
inductive Shape.Prints (s : String) : Shape → List Lexeme → Prop
  | struct {ls : List Lexeme} {fs : Fields Field} (h : PrintsStruct fs ls) :
      Prints s (.struct fs) (Terminal.structWord.lexeme :: .name s :: ls)
  | enum {ls : List Lexeme} {vs : List Variant} (h : PrintsList Variant.Prints vs ls) :
      Prints s (.enum vs) (Terminal.enumWord.lexeme :: .name s :: Terminal.leftBrace.lexeme ::
        (ls ++ [Terminal.rightBrace.lexeme]))
  | union {ls : List Lexeme} {fs : List (String × Field)} (h : PrintsFields (.named fs) ls) :
      Prints s (.union (.named fs)) (Terminal.unionWord.lexeme :: .name s :: ls)

inductive Declaration.Prints : Declaration → List Lexeme → Prop
  | mk {d : Declaration} {ls vs ts : List Lexeme} (houter : PrintsOuter d.attrs d.docs ls)
      (hvis : d.visibility.Prints vs) (hs : Identifier d.ident) (hshape : d.shape.Prints d.ident ts) :
      Prints d (ls ++ (vs ++ ts))

inductive PrintsAlias : Option String → List Lexeme → Prop
  | none : PrintsAlias none []
  | some {s : String} (hs : Identifier s) : PrintsAlias (some s) [Terminal.asWord.lexeme, .name s]

inductive Import.Prints : Import → List Lexeme → Prop
  | mk {i : Import} {ls ms : List Lexeme} (hpath : i.path.Prints ls) (halias : PrintsAlias i.alias? ms) :
      Prints i (Terminal.useWord.lexeme :: (ls ++ (ms ++ [Terminal.semicolon.lexeme])))

/-- Imports and declarations, each kind in order. -/
inductive PrintsItems : List Import → List Declaration → List Lexeme → Prop
  | nil : PrintsItems [] [] []
  | import_ {ls ms : List Lexeme} {i : Import} {is : List Import} {ds : List Declaration}
      (hi : i.Prints ls) (h : PrintsItems is ds ms) :
      PrintsItems (i :: is) ds (ls ++ ms)
  | declaration {ls ms : List Lexeme} {d : Declaration} {is : List Import} {ds : List Declaration} (hd : d.Prints ls)
      (h : PrintsItems is ds ms) : PrintsItems is (d :: ds) (ls ++ ms)

/-! ### Shapes without spans -/

def AttrToken.unspanned (t : AttrToken) : AttrToken := { t with span := none }

def RawAttribute.unspanned (a : RawAttribute) : RawAttribute := { tokens := a.tokens.map AttrToken.unspanned }

def Field.unspanned (f : Field) : Field := { f with attrs := f.attrs.map RawAttribute.unspanned, span := none }

def Fields.map {α β : Type} (f : α → β) : Fields α → Fields β
  | .unit => .unit
  | .named items => .named (items.map fun (k, x) => (k, f x))
  | .unnamed items => .unnamed (items.map fun (k, x) => (k, f x))

def Variant.unspanned (v : Variant) : Variant :=
  { v with fields := v.fields.map Field.unspanned, attrs := v.attrs.map RawAttribute.unspanned, span := none }

def Shape.unspanned : Shape → Shape
  | .struct fs => .struct (fs.map Field.unspanned)
  | .enum vs => .enum (vs.map Variant.unspanned)
  | .union fs => .union (fs.map Field.unspanned)

def Declaration.unspanned (d : Declaration) : Declaration :=
  { d with shape := d.shape.unspanned, attrs := d.attrs.map RawAttribute.unspanned, span := none }

def Import.unspanned (i : Import) : Import := { i with span := none }

def SourceFile.unspanned (f : SourceFile) : SourceFile :=
  { f with imports := f.imports.map Import.unspanned, declarations := f.declarations.map Declaration.unspanned }

end TypedErrors
