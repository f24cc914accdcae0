import TypedErrors.Proofs.Source.Landing

/-! # In front of declarations, variants and fields

Attribute blocks and doc comments stand in front of declarations, enum variants and fields. A place there is found by
reading up to it (`PlaceTo`), and a file is changed by one more of them at a place (`SourceFile.insert`). -/

namespace TypedErrors

/-- An attribute block or a doc comment. -/
inductive HeaderPart where
  | block (a : RawAttribute)
  | doc (s : String)

namespace HeaderPart

def unspanned : HeaderPart → HeaderPart
  | block a => .block a.unspanned
  | doc s => .doc s

/-- Behind `i` other blocks. -/
def intoAttrs (i : Nat) (attrs : List RawAttribute) : HeaderPart → List RawAttribute
  | block a => attrs.insertIdx i a
  | doc _ => attrs

/-- Behind `i` other doc comments. -/
def intoDocs (i : Nat) (docs : List String) : HeaderPart → List String
  | block _ => docs
  | doc s => docs.insertIdx i s

/-- The part is read from `a` to `b`. -/
inductive Read (file : String) (n : Nat) (a b : Lookahead) : HeaderPart → Prop
  | block {r : RawAttribute} (ha : a.head? = some .hash) (h : Parse.attributeBlock file n a = .ok (r, b)) :
      Read file n a b (.block r)
  | doc {t : Token} (ha : a.head? = some .doc) (h : Parse.shift .outerNext a = .ok (t, b)) :
      Read file n a b (.doc (Parse.docText t))

end HeaderPart

/-! ### Changes -/

/-- How many blocks and how many doc comments of its own are in front of a part. -/
structure HeaderIndex where
  attrs : Nat := 0
  docs : Nat := 0

/-- The part stands in front, too. -/
def HeaderIndex.behind (i : HeaderIndex) : HeaderPart → HeaderIndex
  | .block _ => { i with attrs := i.attrs + 1 }
  | .doc _ => { i with docs := i.docs + 1 }

section

variable (x : HeaderPart) (i : HeaderIndex)

def Field.insert (f : Field) : Field :=
  { f with attrs := x.intoAttrs i.attrs f.attrs, docs := x.intoDocs i.docs f.docs }

def Variant.insert (v : Variant) : Variant :=
  { v with attrs := x.intoAttrs i.attrs v.attrs, docs := x.intoDocs i.docs v.docs }

def Declaration.insert (d : Declaration) : Declaration :=
  { d with attrs := x.intoAttrs i.attrs d.attrs, docs := x.intoDocs i.docs d.docs }

end

/-- Applies `f` to the field at the index. -/
def Fields.modify {α : Type} (fs : Fields α) (k : Nat) (f : α → α) : Fields α :=
  match fs with
  | .unit => .unit
  | .named items => .named (items.modify k fun (s, x) => (s, f x))
  | .unnamed items => .unnamed (items.modify k fun (j, x) => (j, f x))

/-- A variant, or a field of it. -/
inductive VariantPart where
  | self
  | field (k : Nat)

/-- A declaration, or a field or variant of it. -/
inductive DeclarationPart where
  | self
  | field (k : Nat)
  | variant (j : Nat) (part : VariantPart)

/-- The declaration, the part of it, and what is in front of that already. -/
structure HeaderPlace where
  declaration : Nat
  part : DeclarationPart
  index : HeaderIndex

section

variable (x : HeaderPart) (i : HeaderIndex)

def Variant.insertAt (v : Variant) : VariantPart → Variant
  | .self => v.insert x i
  | .field k => { v with fields := v.fields.modify k (Field.insert x i) }

def Shape.insertAt (part : DeclarationPart) : Shape → Shape
  | .struct fs => match part with
    | .field k => .struct (fs.modify k (Field.insert x i))
    | _ => .struct fs
  | .enum vs => match part with
    | .variant j part => .enum (vs.modify j (·.insertAt x i part))
    | _ => .enum vs
  | .union fs => match part with
    | .field k => .union (fs.modify k (Field.insert x i))
    | _ => .union fs

def Declaration.insertAt (d : Declaration) : DeclarationPart → Declaration
  | .self => d.insert x i
  | part => { d with shape := d.shape.insertAt x i part }

end

/-- The file with one more attribute block or doc comment. -/
def SourceFile.insert (f : SourceFile) (x : HeaderPart) (place : HeaderPlace) : SourceFile :=
  { f with declarations := f.declarations.modify place.declaration (·.insertAt x place.index place.part) }

/-! ### Places -/

/-- Attribute blocks and doc comments stand from `a` to `b`. -/
inductive HeaderTo (file : String) : Lookahead → HeaderIndex → Lookahead → Prop
  | here {a : Lookahead} : HeaderTo file a {} a
  | part {a b c : Lookahead} {n : Nat} {x : HeaderPart} {i : HeaderIndex} (h : HeaderPart.Read file n a b x)
      (hi : HeaderTo file b i c) : HeaderTo file a (i.behind x) c

/-- From `a`, in front of an item of a list, to `b`, in front of an item `k` places further. -/
inductive ListTo {α : Type} (item : Nat → Parse α) (closer : Terminal) (items : Site) :
    Lookahead → Nat → Lookahead → Prop
  | here {a : Lookahead} (ha : a.head? ≠ some closer) : ListTo item closer items a 0 a
  | later {a b c d : Lookahead} {n k : Nat} {x : α} {t : Token} (ha : a.head? ≠ some closer)
      (hx : item n a = .ok (x, b)) (hcomma : b.head? = some .comma) (ht : Parse.shift items b = .ok (t, c))
      (h : ListTo item closer items c k d) : ListTo item closer items a (k + 1) d

/-- From the bracket that opens a list of fields to its field `k`. -/
inductive FieldsTo (file : String) : Lookahead → Nat → Lookahead → Prop
  | named {a b c : Lookahead} {k : Nat} {t : Token} (ha : a.head? = some .leftBrace)
      (ht : Parse.shift .namedFields a = .ok (t, b))
      (h : ListTo (Parse.namedField file) .rightBrace .namedFields b k c) : FieldsTo file a k c
  | unnamed {a b c : Lookahead} {k : Nat} {t : Token} (ha : a.head? = some .leftParen)
      (ht : Parse.shift .unnamedFields a = .ok (t, b))
      (h : ListTo (Parse.unnamedField file) .rightParen .unnamedFields b k c) : FieldsTo file a k c

/-- From the start of a variant to the part of it. -/
inductive VariantTo (file : String) : Lookahead → VariantPart → Lookahead → Prop
  | self {a : Lookahead} : VariantTo file a .self a
  | field {a b c d : Lookahead} {n k : Nat} {p : List RawAttribute × List String} {t : Token}
      (hp : Parse.outer file n [] [] a = .ok (p, b)) (ht : Parse.shift .variantRest b = .ok (t, c))
      (h : FieldsTo file c k d) : VariantTo file a (.field k) d

/-- From the start of a declaration with the keyword to what follows its name. -/
inductive NameTo (file : String) (keyword : Terminal) (next : Site) : Lookahead → Lookahead → Prop
  | mk {a b c d e : Lookahead} {n : Nat} {p : List RawAttribute × List String} {v : Visibility} {t u : Token}
      (hp : Parse.outer file n [] [] a = .ok (p, b)) (hv : Parse.visibility n .keyword b = .ok (v, c))
      (hc : c.head? = some keyword) (ht : Parse.shift .name c = .ok (t, d)) (hu : Parse.shift next d = .ok (u, e)) :
      NameTo file keyword next a e

/-- From the start of a declaration to the part of it. -/
inductive DeclarationTo (file : String) : Lookahead → DeclarationPart → Lookahead → Prop
  | self {a : Lookahead} : DeclarationTo file a .self a
  | struct {a b c : Lookahead} {k : Nat} (ha : NameTo file .structWord .structNext a b) (h : FieldsTo file b k c) :
      DeclarationTo file a (.field k) c
  | union {a b c : Lookahead} {k : Nat} (ha : NameTo file .unionWord .leftBraceOnly a b) (h : FieldsTo file b k c) :
      DeclarationTo file a (.field k) c
  | enum {a b c d e : Lookahead} {j : Nat} {part : VariantPart} {t : Token}
      (ha : NameTo file .enumWord .leftBraceOnly a b) (ht : Parse.shift .variants b = .ok (t, c))
      (hj : ListTo (Parse.variant file) .rightBrace .variants c j d) (h : VariantTo file d part e) :
      DeclarationTo file a (.variant j part) e

/-- From the start of an item of the file to the declaration that comes `k` declarations later. -/
inductive ItemsTo (file : String) : Lookahead → Nat → Lookahead → Prop
  | here {a : Lookahead} (ha : a.head? ≠ some .useWord) (hne : a.head? ≠ none) : ItemsTo file a 0 a
  | import_ {a b c : Lookahead} {n k : Nat} {i : Import} (ha : a.head? = some .useWord)
      (hi : Parse.import_ file n a = .ok (i, b)) (h : ItemsTo file b k c) : ItemsTo file a k c
  | declaration {a b c : Lookahead} {n k : Nat} {d : Declaration} (ha : a.head? ≠ some .useWord) (hne : a.head? ≠ none)
      (hd : Parse.declaration file n a = .ok (d, b)) (h : ItemsTo file b k c) : ItemsTo file a (k + 1) c

/-- From the start of the file to the place. -/
inductive PlaceTo (file : String) : Lookahead → HeaderPlace → Lookahead → Prop
  | mk {a b c d : Lookahead} {k : Nat} {part : DeclarationPart} {i : HeaderIndex} (hk : ItemsTo file a k b)
      (hpart : DeclarationTo file b part c) (hi : HeaderTo file c i d) : PlaceTo file a ⟨k, part, i⟩ d

end TypedErrors
