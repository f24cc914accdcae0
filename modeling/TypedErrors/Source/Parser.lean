import TypedErrors.Source.Declaration
import TypedErrors.Source.Lookahead

/-! # The grammar of declarations

`parseSource` reads a whole file. Attribute blocks are kept as flat token sequences with balanced brackets.
Every recursion has fuel for as many tokens as the source has characters. -/

namespace TypedErrors

def Position.spanTo (file : String) (a b : Position) : Span :=
  ⟨file, a.line, a.column, some b.line, some b.column⟩

def Token.span (file : String) (t : Token) : Span := t.start.spanTo file t.stop

namespace Site
open Terminal

def name : Site := ⟨[.name], false⟩

/-- Between the items of a file. -/
def items : Site := ⟨[hash, doc, pubWord, structWord, enumWord, unionWord, useWord], true⟩

def pathNext : Site :=
  ⟨[asWord, pathSep, comma, dot, leftBracket, pipe, rightBrace, rightParen, rightBracket, semicolon], false⟩

def segment : Site := ⟨[crateWord, .name, selfWord, superWord], false⟩

def importRest : Site := ⟨[asWord, semicolon], false⟩

def semicolonOnly : Site := ⟨[semicolon], false⟩

def colonOnly : Site := ⟨[colon], false⟩

def leftBracketOnly : Site := ⟨[leftBracket], false⟩

def leftBraceOnly : Site := ⟨[leftBrace], false⟩

def rightParenOnly : Site := ⟨[rightParen], false⟩

/-- What a token tree of an attribute block starts with. -/
def treeStart : List Terminal :=
  [leftParen, leftBracket, leftBrace, .name, string, char, int, float, equal, comma, dot, pathSep, colon,
    pipe, semicolon]

/-- Within brackets of an attribute block. -/
def tree (closer : Terminal) : Site := ⟨closer :: treeStart, false⟩

def treeNext : Site := ⟨[rightParen, rightBracket, rightBrace] ++ treeStart, false⟩

/-- After an attribute block or a doc comment. -/
def outerNext : Site := ⟨[doc, enumWord, hash, .name, pubWord, structWord, unionWord], false⟩

def declarationNext : Site := ⟨[doc, enumWord, hash, pubWord, structWord, unionWord], false⟩

def variantNext : Site := ⟨[doc, hash, .name], false⟩

def fieldNext : Site := ⟨[doc, hash, .name, pubWord], false⟩

def pubNext : Site := ⟨[enumWord, leftParen, .name, structWord, unionWord], false⟩

def restrictionNext : Site := ⟨[enumWord, .name, structWord, unionWord], false⟩

def restriction : Site := ⟨[crateWord, inWord, selfWord, superWord], false⟩

def segmentNext : Site := ⟨[pathSep, dot, rightParen], false⟩

def keyword : Site := ⟨[enumWord, structWord, unionWord], false⟩

def structNext : Site := ⟨[leftBrace, leftParen, semicolon], false⟩

def variants : Site := ⟨[doc, hash, .name, rightBrace], false⟩

def variantRest : Site := ⟨[comma, leftBrace, leftParen, rightBrace], false⟩

def braceList : Site := ⟨[comma, rightBrace], false⟩

def parenList : Site := ⟨[comma, rightParen], false⟩

def bracketList : Site := ⟨[comma, rightBracket], false⟩

/-- Where a field or the closing brace may stand. -/
def namedFields : Site := ⟨[doc, hash, .name, pubWord, rightBrace], false⟩

def unnamedFields : Site := ⟨[doc, hash, .name, pubWord, rightParen], false⟩

def namedFieldsNext : Site :=
  ⟨[comma, doc, enumWord, hash, pubWord, rightBrace, structWord, unionWord, useWord], true⟩

def unnamedFieldsNext : Site := ⟨[comma, rightBrace, semicolon], false⟩

def typePathNext : Site := ⟨[comma, leftBracket, pipe, rightBrace, rightParen, rightBracket], false⟩

def subscriptNext : Site := ⟨[comma, pipe, rightBrace, rightParen, rightBracket], false⟩

def typeArg : Site := ⟨[ellipsis, leftBracket, .name, string], false⟩

def typeArgOrClose : Site := ⟨[ellipsis, leftBracket, .name, rightBracket, string], false⟩

end Site

namespace Parse

/-- The parts after the first of a dotted name. -/
def pathRest : (fuel : Nat) → (acc : List String) → Parse (List String)
  | 0, _ => exhausted
  | n + 1, acc => do
    match ← peek with
    | some .dot | some .pathSep =>
      let _ ← shift .segment
      check .name
      let t ← shift .pathNext
      pathRest n (t.text :: acc)
    | _ => return acc.reverse

def path (n : Nat) : Parse DottedName := do
  let t ← shift .pathNext
  return ⟨t.text, ← pathRest n []⟩

mutual

def typeExpr : (fuel : Nat) → Parse TypeExpr
  | 0 => exhausted
  | n + 1 => do
    let first ← typeAtom n
    return .union first (← typeMore n [])

def typeMore : (fuel : Nat) → (acc : List TypeAtom) → Parse (List TypeAtom)
  | 0, _ => exhausted
  | n + 1, acc => do
    match ← peek with
    | some .pipe =>
      let _ ← shift .name
      let a ← typeAtom n
      typeMore n (a :: acc)
    | _ => return acc.reverse

def typeAtom : (fuel : Nat) → Parse TypeAtom
  | 0 => exhausted
  | n + 1 => do
    let p ← path n
    check .typePathNext
    match ← peek with
    | some .leftBracket =>
      let _ ← shift .typeArg
      let first ← typeArg n
      let more ← typeArgs n []
      let _ ← shift .subscriptNext
      return .subscripted p first more
    | _ => return .plain p

/-- The arguments after the first, up to the closing bracket. -/
def typeArgs : (fuel : Nat) → (acc : List TypeArg) → Parse (List TypeArg)
  | 0, _ => exhausted
  | n + 1, acc => do
    check .bracketList
    match ← peek with
    | some .comma =>
      let _ ← shift .typeArgOrClose
      match ← peek with
      | some .rightBracket => return acc.reverse
      | _ =>
        let a ← typeArg n
        typeArgs n (a :: acc)
    | _ => return acc.reverse

def typeArg : (fuel : Nat) → Parse TypeArg
  | 0 => exhausted
  | n + 1 => do
    match ← peek with
    | some .leftBracket =>
      let _ ← shift .typeArgOrClose
      match ← peek with
      | some .rightBracket =>
        let _ ← shift .bracketList
        return .list []
      | _ =>
        let first ← typeArg n
        let more ← typeArgs n []
        let _ ← shift .bracketList
        return .list (first :: more)
    | some .string =>
      let t ← shift .bracketList
      return .literal t.text
    | some .ellipsis =>
      let _ ← shift .bracketList
      return .ellipsis
    | _ => return .type (← typeExpr n)

end

/-- The bracket that closes a bracket of an attribute block. -/
def closer? : Terminal → Option Terminal
  | .leftParen => some .rightParen
  | .leftBracket => some .rightBracket
  | .leftBrace => some .rightBrace
  | _ => none

/-- The tokens of an attribute block up to the bracket that closes it; `open_` are the closers due, inner
ones first. -/
def attributeTokens (file : String) :
    (fuel : Nat) → (open_ : List Terminal) → (acc : List AttrToken) → Parse (List AttrToken)
  | 0, _, _ => exhausted
  | _ + 1, [], acc => return acc.reverse
  | n + 1, k :: outer, acc => do
    check (.tree k)
    let ahead ← peek
    if ahead = some k then
      if outer.isEmpty then
        let _ ← shift .outerNext
        return acc.reverse
      else
        let t ← shift .treeNext
        attributeTokens file n outer (⟨t.terminal, t.text, t.span file⟩ :: acc)
    else
      match ahead.bind closer? with
      | some k' =>
        let t ← shift (.tree k')
        attributeTokens file n (k' :: k :: outer) (⟨t.terminal, t.text, t.span file⟩ :: acc)
      | none =>
        let t ← shift .treeNext
        attributeTokens file n (k :: outer) (⟨t.terminal, t.text, t.span file⟩ :: acc)

def attributeBlock (file : String) (n : Nat) : Parse RawAttribute := do
  let start ← here
  let _ ← shift .leftBracketOnly
  let _ ← shift (.tree .rightBracket)
  let tokens ← attributeTokens file n [.rightBracket] []
  return ⟨tokens, start.spanTo file (← there)⟩

/-- The text of a doc comment without its slashes and one space. -/
def docText (t : Token) : String :=
  match t.text.toList.drop 3 with
  | ' ' :: cs => String.ofList cs
  | cs => String.ofList cs

/-- The attribute blocks and doc comments in front of something. -/
def outer (file : String) :
    (fuel : Nat) → (attrs : List RawAttribute) → (docs : List String) → Parse (List RawAttribute × List String)
  | 0, _, _ => exhausted
  | n + 1, attrs, docs => do
    match ← peek with
    | some .hash =>
      let a ← attributeBlock file n
      outer file n (a :: attrs) docs
    | some .doc =>
      let t ← shift .outerNext
      outer file n attrs (docText t :: docs)
    | _ => return (attrs.reverse, docs.reverse)

/-- The scopes after the first of a restriction's path. -/
def scopes : (fuel : Nat) → (acc : List String) → Parse (List String)
  | 0, _ => exhausted
  | n + 1, acc => do
    match ← peek with
    | some .dot | some .pathSep =>
      let _ ← shift .segment
      let t ← shift .segmentNext
      scopes n (t.text :: acc)
    | _ => return acc.reverse

/-- The restriction between parentheses. -/
def restriction (n : Nat) : Parse Visibility := do
  match ← peek with
  | some .inWord =>
    let _ ← shift .segment
    let first ← shift .segmentNext
    return .restricted (first.text :: (← scopes n [])) true
  | some .crateWord =>
    let _ ← shift .rightParenOnly
    return .crate
  | _ =>
    let t ← shift .rightParenOnly
    return .restricted [t.text] false

/-- The visibility, if any; what follows it has to fit the site. -/
def visibility (n : Nat) (next : Site) : Parse Visibility := do
  match ← peek with
  | some .pubWord =>
    let _ ← shift .pubNext
    let v ← match ← peek with
      | some .leftParen => do
        let _ ← shift .restriction
        let v ← restriction n
        let _ ← shift .restrictionNext
        pure v
      | _ => pure .pub
    check next
    return v
  | _ => return .inherited

def namedField (file : String) (n : Nat) : Parse (String × Field) := do
  let start ← here
  let (attrs, docs) ← outer file n [] []
  check .fieldNext
  let visibility ← visibility n .name
  let t ← shift .colonOnly
  let _ ← shift .name
  let type ← typeExpr n
  let span := start.spanTo file (← there)
  return (t.text, { name := some t.text, type, attrs, visibility, docs, span })

def unnamedField (file : String) (n : Nat) : Parse Field := do
  let start ← here
  let (attrs, docs) ← outer file n [] []
  check .fieldNext
  let visibility ← visibility n .name
  let type ← typeExpr n
  return { name := none, type, attrs, visibility, docs, span := start.spanTo file (← there) }

/-- Items parted by commas, the last comma optional. `items` is where an item or the closing bracket may
stand, `next` what may follow an item. -/
def commaList {α : Type} (item : Parse α) (closer : Terminal) (items next : Site) :
    (fuel : Nat) → (acc : List α) → Parse (List α)
  | 0, _ => exhausted
  | n + 1, acc => do
    if (← peek) = some closer then return acc.reverse
    else
      let x ← item
      check next
      match ← peek with
      | some .comma =>
        let _ ← shift items
        commaList item closer items next n (x :: acc)
      | _ => return (x :: acc).reverse

/-- Fields in braces. -/
def namedFields (file : String) (n : Nat) : Parse (Fields Field) := do
  let _ ← shift .namedFields
  let items ← commaList (namedField file n) .rightBrace .namedFields .braceList n []
  let _ ← shift .namedFieldsNext
  return .named items

/-- Fields in parentheses. -/
def unnamedFields (file : String) (n : Nat) : Parse (Fields Field) := do
  let _ ← shift .unnamedFields
  let items ← commaList (unnamedField file n) .rightParen .unnamedFields .parenList n []
  let _ ← shift .unnamedFieldsNext
  return .ofList items

def variant (file : String) (n : Nat) : Parse Variant := do
  let (attrs, docs) ← outer file n [] []
  check .variantNext
  let t ← shift .variantRest
  let fields ← match ← peek with
    | some .leftBrace => namedFields file n
    | some .leftParen => unnamedFields file n
    | _ => pure .unit
  return { ident := t.text, fields, attrs, docs, span := t.span file }

/-- From the keyword on: the name of what is declared, and its shape. -/
def shape (file : String) (n : Nat) : Parse (Token × Shape) := do
  match ← peek with
  | some .structWord =>
    let _ ← shift .name
    let t ← shift .structNext
    match ← peek with
    | some .leftBrace =>
      let fields ← namedFields file n
      check .items
      return (t, .struct fields)
    | some .leftParen =>
      let fields ← unnamedFields file n
      check .semicolonOnly
      let _ ← shift .items
      return (t, .struct fields)
    | _ =>
      let _ ← shift .items
      return (t, .struct .unit)
  | some .enumWord =>
    let _ ← shift .name
    let t ← shift .leftBraceOnly
    let _ ← shift .variants
    let variants ← commaList (variant file n) .rightBrace .variants .braceList n []
    let _ ← shift .items
    return (t, .enum variants)
  | _ =>
    let _ ← shift .name
    let t ← shift .leftBraceOnly
    let fields ← namedFields file n
    check .items
    return (t, .union fields)

def declaration (file : String) (n : Nat) : Parse Declaration := do
  let (attrs, docs) ← outer file n [] []
  check .declarationNext
  let visibility ← visibility n .keyword
  let (t, shape) ← shape file n
  return { ident := t.text, visibility, shape, attrs, docs, span := t.span file }

def import_ (file : String) (n : Nat) : Parse Import := do
  let start ← here
  let _ ← shift .name
  let path ← path n
  check .importRest
  let alias? ← match ← peek with
    | some .asWord => do
      let _ ← shift .name
      let t ← shift .semicolonOnly
      pure (some t.text)
    | _ => pure none
  let _ ← shift .items
  return { path, alias?, span := start.spanTo file (← there) }

def items (file : String) :
    (fuel : Nat) → (imports : List Import) → (declarations : List Declaration) → Parse SourceFile
  | 0, _, _ => exhausted
  | n + 1, imports, declarations => do
    match ← peek with
    | none => return ⟨file, imports.reverse, declarations.reverse⟩
    | some .useWord =>
      let i ← import_ file n
      items file n (i :: imports) declarations
    | some _ =>
      let d ← declaration file n
      items file n imports (d :: declarations)

end Parse

/-- Reads a whole source file. -/
def parseSource (file : String) (source : String) : Except SyntaxError SourceFile := do
  let ahead ← Lookahead.fetch .items none (.ofString source)
  let (result, _) ← (Parse.items file (source.length + 2) [] []).run ahead
  return result

end TypedErrors
